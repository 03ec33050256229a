import Blockflow.Proofs.Graph.Closing

/-!
# The search for back edges

Back edges are searched loop by loop, in graphs of any shape: with cycles, with loops inside of each
other or across each other, and with edges whose ends are no nodes. The search comes to no place
twice and follows no edge twice, so it ends (`Graph.nodup_loopBody`, `Graph.length_loopBody_le`). It
comes to the places that a way leads to from the body exit of the
loop, where the way does not come through the loop itself (`Graph.mem_loopBody_iff_wayBeside`).
-/

namespace Blockflow

open Relation

/-! ## Rounds of the search -/

/-- No place is visited twice, and none that has been seen before. -/
theorem nodup_search (edges : List Edge) (seen stack : List String) :
    (search edges seen stack).Nodup := by
  fun_induction search edges seen stack with
  | case1 => exact List.nodup_nil
  | case2 seen place stack hplace ih => exact ih
  | case3 seen place stack hplace _ _ ih =>
    refine List.nodup_cons.mpr ⟨fun hmem => ?_, ih⟩
    obtain ⟨s, -, hseen, hpath⟩ := mem_search_iff.mp hmem
    -- a way that ends at a place which has been seen does not start before it
    rcases hpath.cases_tail with rfl | ⟨y, -, hstep⟩
    · exact hseen List.mem_cons_self
    · exact hstep.2 List.mem_cons_self

/-- Each place that is visited was on the stack, or is the end of an edge that is used up. -/
theorem length_search_le (edges : List Edge) (seen stack : List String) :
    (search edges seen stack).length ≤ (unseenEdges edges seen).length + stack.length := by
  fun_induction search edges seen stack with
  | case1 => exact Nat.zero_le _
  | case2 seen place stack hplace ih =>
    rw [List.length_cons]
    omega
  | case3 seen place stack hplace hedges hplaces ih =>
    rw [List.length_append] at ih
    rw [List.length_cons, List.length_cons]
    omega

namespace Graph

variable {g : Graph}

theorem nodup_loopBody (g : Graph) (loop : String) : (g.loopBody loop).Nodup := by
  unfold loopBody
  split
  next => exact List.nodup_nil
  next => exact nodup_search _ _ _

theorem length_loopBody_le (g : Graph) (loop : String) :
    (g.loopBody loop).length ≤ g.edges.length + 1 := by
  unfold loopBody
  split
  next => exact Nat.zero_le _
  next e _ =>
    have hplaces := length_search_le g.edges [loop] [e.target]
    have hedges : (unseenEdges g.edges [loop]).length ≤ g.edges.length :=
      List.length_filter_le _ _
    rw [List.length_singleton] at hplaces
    omega

/-! ## Ways that do not come through a loop -/

/-- A way leads from one place to another along edges of any role. None of its places, the first and
the last one included, is the one to be avoided. The places need not be nodes. -/
inductive WayBeside (g : Graph) (avoided : String) : String → String → Prop where
  | stay {a : String} : a ≠ avoided → WayBeside g avoided a a
  | follow {e : Edge} {b : String} : e.source ≠ avoided → e ∈ g.edges →
      WayBeside g avoided e.target b → WayBeside g avoided e.source b

theorem WayBeside.ne_avoided {avoided a b : String} (h : g.WayBeside avoided a b) :
    a ≠ avoided := by
  cases h with
  | stay hne => exact hne
  | follow hne => exact hne

theorem wayBeside_iff {avoided a b : String} (ha : a ≠ avoided) :
    g.WayBeside avoided a b ↔ ReflTransGen (Leads (g.edgesBeside avoided)) a b := by
  constructor
  · intro h
    clear ha
    induction h with
    | stay => exact .refl
    | @follow e b _ he hrest ih =>
      have hmem : e ∈ g.edgesBeside avoided :=
        List.mem_filter.mpr ⟨he, decide_eq_true hrest.ne_avoided⟩
      exact .head ⟨e, hmem, rfl, rfl⟩ ih
  · intro h
    induction h using ReflTransGen.head_induction_on with
    | refl => exact .stay ha
    | head hstep _ ih =>
      obtain ⟨e, he, rfl, rfl⟩ := hstep
      obtain ⟨he, htarget⟩ := List.mem_filter.mp he
      exact .follow ha he (ih (of_decide_eq_true htarget))

/-- The first of the edges that leave a place through its body exit. -/
def firstBody? (g : Graph) (id : String) : Option Edge :=
  g.edges.find? fun e => e.source = id ∧ e.role = some .body

theorem edgeFor_body (g : Graph) (id : String) : g.edgeFor id .body = g.firstBody? id := by
  rw [edgeFor, outgoing, List.find?_filter, firstBody?]
  exact congrArg (List.find? · g.edges) (funext fun e => by simp)

/-- **The body of a loop is what can be reached beside the loop.** -/
theorem mem_loopBody_iff_wayBeside {loop id : String} :
    id ∈ g.loopBody loop ↔ ∃ into, g.firstBody? loop = some into ∧ into.target ≠ loop ∧
      g.WayBeside loop into.target id := by
  rw [mem_loopBody_iff, edgeFor_body]
  refine exists_congr fun into => and_congr_right fun _ => and_congr_right fun hne => ?_
  exact (wayBeside_iff hne).symm

/-! ## Exactness -/

theorem isLoop_iff {n : Node} : isLoop n = true ↔ n.type = "for" ∨ n.type = "while" := by
  unfold isLoop Node.block?
  constructor
  · intro h
    cases htype : BlockType.ofName? n.type with
    | none =>
      rw [htype] at h
      cases h
    | some type =>
      rw [htype, Option.any_some] at h
      have hname : type.name = n.type := by simpa using List.find?_some htype
      rw [← hname]
      cases type with
      | forLoop => exact Or.inl rfl
      | whileLoop => exact Or.inr rfl
      | _ => cases h
  · rintro (h | h) <;> rw [h] <;> decide

/-- **The search for back edges ends and is exact.** An id is found if and only if an edge with this
id leads to a `for` or `while` node whose first body exit leads somewhere else, and starts at a
place to which a way leads from there that does not come through the node. For each place that is
taken for a loop, the search comes to no place twice, and to one more place than there are edges at
most. -/
theorem backEdges_exact (g : Graph) :
    (∀ id, id ∈ g.backEdges ↔ ∃ e ∈ g.edges, e.id = id ∧
      ∃ w ∈ g.nodes, (w.type = "for" ∨ w.type = "while") ∧ e.target = w.id ∧
        ∃ into, g.firstBody? w.id = some into ∧ into.target ≠ w.id ∧
          g.WayBeside w.id into.target e.source) ∧
    ∀ loop, (g.loopBody loop).Nodup ∧ (g.loopBody loop).length ≤ g.edges.length + 1 := by
  refine ⟨fun id => ?_, fun loop => ⟨g.nodup_loopBody loop, g.length_loopBody_le loop⟩⟩
  simp only [mem_backEdges_iff, isLoop_iff, mem_loopBody_iff_wayBeside]

-- the body leads through a place that is no node; an edge from behind the loop is no back edge
example :
    ({ nodes := [{ id := "w", type := "while" }, { id := "p", type := "print" }]
       edges :=
        [{ id := "into", source := "w", target := "x", role := some .body },
         { id := "back", source := "x", target := "w" },
         { id := "behind", source := "p", target := "w" }]
       nodup := by decide } : Graph).backEdges = ["back"] := by
  decide +kernel

end Graph

end Blockflow
