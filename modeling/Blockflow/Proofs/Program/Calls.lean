import Blockflow.Proofs.Program.Acceptance

/-!
# Calls and their sites

Every call that is met while a program is put together is noted as a call site. The sites are those
of the visited nodes that call something (`Assembly.chain_calls`), and so are the call statements of
the program. So the names that a program calls are the names of its call sites, each as often
(`Graph.calledNames_perm`).
-/

namespace Blockflow

open scoped List

/-! ## Names that are called -/

/-- The name that a part calls, if it is a call. -/
def Part.callName? : Part → Option String
  | .statement (.call name _ _) => some name
  | _ => none

/-- The names that are called in some parts. -/
def calledNames (parts : List Part) : List String := parts.filterMap Part.callName?

@[simp] theorem calledNames_append (parts more : List Part) :
    calledNames (parts ++ more) = calledNames parts ++ calledNames more :=
  List.filterMap_append

theorem mem_calledNames {parts : List Part} {name : String} :
    name ∈ calledNames parts ↔ ∃ args node, Part.statement (.call name args node) ∈ parts := by
  unfold calledNames
  rw [List.mem_filterMap]
  constructor
  · rintro ⟨q, hq, hname⟩
    unfold Part.callName? at hname
    split at hname
    next n args node => cases hname; exact ⟨args, node, hq⟩
    next => cases hname
  · rintro ⟨args, node, hq⟩
    exact ⟨_, hq, rfl⟩

theorem calledNames_subset {parts more : List Part} (h : parts ⊆ more) :
    calledNames parts ⊆ calledNames more := by
  intro name hname
  obtain ⟨args, node, hq⟩ := mem_calledNames.mp hname
  exact mem_calledNames.mpr ⟨args, node, h hq⟩

/-- The types of parameters have nothing to do with what is called. -/
theorem calledNames_typed (calls : List CallSite) (parts : List Part) :
    calledNames (parts.map (Part.typed calls)) = calledNames parts := by
  unfold calledNames
  rw [List.filterMap_map]
  refine congrArg (List.filterMap · parts) (funext fun q => ?_)
  cases q <;> rfl

/-! ## What the visited nodes call -/

/-- Who calls what: the node of a call and the name that it calls. -/
def CallSite.origin (site : CallSite) : String × String := (site.node, site.name)

/-- The nodes that call something among those visited, with the names that they call. -/
def callers (vs : List Visit) : List (String × String) :=
  (vs.filter fun v => v.node.block? = some .call).map fun v => (v.node.id, v.node.definedName)

@[simp] theorem callers_nil : callers [] = [] := rfl

@[simp] theorem callers_append (vs ws : List Visit) :
    callers (vs ++ ws) = callers vs ++ callers ws := by
  simp [callers]

theorem callers_cons {type : BlockType} {v : Visit} (hb : v.node.block? = some type)
    (vs : List Visit) :
    callers (v :: vs) =
      (if type = .call then [(v.node.id, v.node.definedName)] else []) ++ callers vs := by
  unfold callers
  rw [List.filter_cons, hb]
  by_cases h : type = .call <;> simp [h]

theorem Heading.Fits.callName_part {n : Node} {type : BlockType} {h : Heading} (hf : h.Fits n type)
    (blocks : List (List Part)) :
    (h.part n.id blocks).callName? = if type = .call then some n.definedName else none := by
  cases hf with
  | @plain _ s hkind hplain _ => cases s <;> cases hkind <;> first | rfl | cases hplain
  | call _ hname => exact congrArg some hname
  | _ => rfl

theorem Heading.Fits.origin_calls {n : Node} {type : BlockType} {h : Heading}
    (hf : h.Fits n type) :
    h.calls.map CallSite.origin = if type = .call then [(n.id, n.definedName)] else [] := by
  cases hf with
  | plain _ hplain _ =>
    rcases BlockType.isPlain_iff.mp hplain with rfl | rfl | rfl | rfl <;> rfl
  | call hnode hname => exact congrArg₂ (fun node name => [(node, name)]) hnode hname
  | _ => rfl

/-- The parts call what the visited nodes call that they are built from. -/
theorem calledNames_of_becomes {vs : List Visit} {parts : List Part}
    (h : List.Forall₂ Visit.Becomes vs parts) :
    calledNames parts = (callers vs).map Prod.snd := by
  induction h with
  | nil => rfl
  | @cons v q vs parts hbecomes _ ih =>
    obtain ⟨hb, hf, -, -⟩ := hbecomes
    rw [callers_cons hb, List.map_append, ← ih, calledNames, List.filterMap_cons, hf.callName_part]
    split <;> simp_all [calledNames]

namespace Assembly

mutual

/-- **The sites are those of the visited nodes that call something.** -/
theorem chain_calls : ∀ {o : Outline} {p : Place} {a b : Assembly} {parts : List Part},
    chain p.inClass o a = .ok (parts, b) →
      (b.calls.map CallSite.origin).Perm (a.calls.map CallSite.origin ++ callers (o.visits p))
  | .done, _, _, _, _, h => by
    rw [chain] at h
    cases h
    simp
  | .fault _ _, _, _, _, _, h => by rw [chain] at h; cases h
  | .missing _, _, _, _, _, h => by rw [chain] at h; cases h
  | .step n slots next, p, a, b, parts, h => by
    obtain ⟨type, heading, blocks, b₁, here, b₂, rest, hb, hf, hslots, hplace, hnext, -⟩ :=
      chain_step_eq_ok h
    have hinner := chains_calls (p := p.inside n) hslots
    have hrest := chain_calls hnext
    rw [calls_place hplace, List.map_append, hf.origin_calls] at hrest
    rw [Outline.visits, callers_cons hb, callers_append]
    -- a node is visited before what is inside of it, but its call is noted after that
    calc b.calls.map CallSite.origin
      _ ~ b₁.calls.map CallSite.origin ++ _ ++ callers (next.visits p) := hrest
      _ ~ a.calls.map CallSite.origin ++ callers (Outline.slotVisits (p.inside n) slots) ++ _ ++
            callers (next.visits p) := (hinner.append_right _).append_right _
      _ ~ _ := by
        rw [List.append_assoc (a.calls.map _), List.append_assoc (a.calls.map _),
          ← List.append_assoc (if type = .call then _ else _)]
        exact (List.perm_append_comm.append_right _).append_left _

theorem chains_calls : ∀ {slots : List (Role × Outline)} {p : Place} {a b : Assembly}
    {blocks : List (List Part)}, chains p.inClass slots a = .ok (blocks, b) →
      (b.calls.map CallSite.origin).Perm
        (a.calls.map CallSite.origin ++ callers (Outline.slotVisits p slots))
  | [], _, _, _, _, h => by
    rw [chains] at h
    cases h
    simp [Outline.slotVisits]
  | (role, o) :: slots, p, a, b, blocks, h => by
    obtain ⟨block, b₁, rest, hchain, hrest, -⟩ := chains_cons_eq_ok h
    rw [Outline.slotVisits, callers_append, ← List.append_assoc]
    exact (chains_calls hrest).trans ((chain_calls hchain).append_right _)

end

theorem mainBlock_calls : ∀ {os : List Outline} {a b : Assembly} {main : Block},
    mainBlock os a = .ok (main, b) →
      (b.calls.map CallSite.origin).Perm
        (a.calls.map CallSite.origin ++ callers (os.flatMap (Outline.visits {})))
  | [], _, _, _, h => by
    rw [mainBlock] at h
    cases h
    simp
  | o :: os, a, b, main, h => by
    obtain ⟨parts, b₁, rest, hchain, hrest, -⟩ := mainBlock_cons_eq_ok h
    rw [List.flatMap_cons, callers_append, ← List.append_assoc]
    exact (mainBlock_calls hrest).trans ((chain_calls (p := {}) hchain).append_right _)

end Assembly

namespace Graph

variable {g : Graph} {limit : Int} {main : Block} {a : Assembly}

/-- The calls of a graph are those of its nodes that call something. -/
theorem origins_perm (h : g.assemble limit = .ok (main, a)) :
    (a.calls.map CallSite.origin).Perm (callers (g.visits limit)) := by
  obtain ⟨hmain, -⟩ := assemble_eq_ok.mp h
  exact Assembly.mainBlock_calls hmain

/-- Every call of a graph is one of its nodes. -/
theorem exists_node_of_call (h : g.assemble limit = .ok (main, a)) {site : CallSite}
    (hsite : site ∈ a.calls) :
    ∃ n ∈ g.nodes, n.block? = some .call ∧ n.id = site.node ∧ n.definedName = site.name := by
  have hmem := (origins_perm h).mem_iff.mp (List.mem_map_of_mem hsite)
  obtain ⟨v, hv, horigin⟩ := List.mem_map.mp hmem
  obtain ⟨hvisit, hcall⟩ := List.mem_filter.mp hv
  obtain ⟨hid, hname⟩ := Prod.mk.inj horigin
  exact ⟨v.node, mem_nodes_of_visit hvisit, of_decide_eq_true hcall, hid, hname⟩

/-- **The names that a program calls are those of its call sites.** -/
theorem calledNames_perm (h : g.assemble limit = .ok (main, a)) :
    (calledNames (a.walk ++ (Block.walk main).map Part.statement)).Perm
      (a.calls.map CallSite.name) := by
  obtain ⟨-, parts, hparts, hperm⟩ := assemble_becomes h
  refine (hperm.filterMap _).trans ?_
  show (calledNames parts).Perm _
  have hnames := (origins_perm h).map Prod.snd
  rw [List.map_map] at hnames
  rw [calledNames_of_becomes hparts]
  exact hnames.symm

end Graph

end Blockflow
