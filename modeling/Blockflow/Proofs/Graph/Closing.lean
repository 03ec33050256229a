import Blockflow.Proofs.Graph.Valid
import Mathlib.Logic.Relation

/-!
# Back edges by reachability

The search with a stack visits what can be reached along edges without coming to a place that has
been seen before (`mem_search_iff`). So an edge is a back edge exactly when it leads from somewhere
in the body of a loop back to the loop (`mem_backEdges_iff`), where the body is what can be reached
through the body exit without coming to the loop (`mem_loopBody_iff`).
-/

namespace Blockflow

open Relation

/-! ## Reachability -/

/-- One of the edges leads from `a` to `b`. -/
def Leads (edges : List Edge) (a b : String) : Prop := ∃ e ∈ edges, e.source = a ∧ e.target = b

/-- One of the edges leads from `a` to `b`, and `b` has not been seen. -/
def LeadsOn (edges : List Edge) (seen : List String) (a b : String) : Prop :=
  Leads edges a b ∧ b ∉ seen

theorem LeadsOn.of_cons {edges : List Edge} {seen : List String} {place a b : String}
    (h : LeadsOn edges (place :: seen) a b) : LeadsOn edges seen a b :=
  ⟨h.1, fun hb => h.2 (List.mem_cons_of_mem _ hb)⟩

theorem leadsOn_nil (edges : List Edge) : LeadsOn edges [] = Leads edges := by
  funext a b
  simp [LeadsOn]

theorem mem_nextPlaces {edges : List Edge} {seen : List String} {place x : String} :
    x ∈ nextPlaces edges seen place ↔ LeadsOn edges seen place x := by
  simp [nextPlaces, LeadsOn, Leads, and_assoc]

/-- A way need not come to a place twice: it ends there, or it goes on from its start or from that
place without coming to it again. -/
theorem exists_way_on {edges : List Edge} {seen : List String} (place : String) {s x : String}
    (h : ReflTransGen (LeadsOn edges seen) s x) :
    x = place ∨ ∃ t, (t = s ∧ s ≠ place ∨ LeadsOn edges (place :: seen) place t) ∧
      ReflTransGen (LeadsOn edges (place :: seen)) t x := by
  induction h with
  | refl =>
    by_cases hs : s = place
    · exact .inl hs
    · exact .inr ⟨s, .inl ⟨rfl, hs⟩, .refl⟩
  | @tail y x _ hstep ih =>
    by_cases hx : x = place
    · exact .inl hx
    have hon : LeadsOn edges (place :: seen) y x := ⟨hstep.1, by simp [hx, hstep.2]⟩
    rcases ih with rfl | ⟨t, ht, hpath⟩
    · exact .inr ⟨x, .inr hon, .refl⟩
    · exact .inr ⟨t, ht, hpath.tail hon⟩

/-- What is visited can be reached from the stack. -/
theorem exists_of_mem_search {edges : List Edge} {seen stack : List String} {x : String}
    (h : x ∈ search edges seen stack) :
    ∃ s ∈ stack, s ∉ seen ∧ ReflTransGen (LeadsOn edges seen) s x := by
  fun_induction search edges seen stack with
  | case1 => cases h
  | case2 seen place stack hplace ih =>
    obtain ⟨s, hs, hpath⟩ := ih h
    exact ⟨s, List.mem_cons_of_mem _ hs, hpath⟩
  | case3 seen place stack hplace _ _ ih =>
    rcases List.mem_cons.mp h with rfl | h
    · exact ⟨x, List.mem_cons_self, hplace, .refl⟩
    obtain ⟨s, hs, hseen, hpath⟩ := ih h
    have hpath : ReflTransGen (LeadsOn edges seen) s x :=
      ReflTransGen.mono (fun _ _ => LeadsOn.of_cons) _ _ hpath
    rcases List.mem_append.mp hs with hs | hs
    · -- the end of an edge that leaves the place which has just been visited
      exact ⟨place, List.mem_cons_self, hplace, .head (mem_nextPlaces.mp hs).of_cons hpath⟩
    · exact ⟨s, List.mem_cons_of_mem _ hs, fun hmem => hseen (List.mem_cons_of_mem _ hmem), hpath⟩

/-- What can be reached from the stack is visited. -/
theorem mem_search_of_exists {edges : List Edge} {seen stack : List String} {s x : String}
    (hs : s ∈ stack) (hseen : s ∉ seen) (hpath : ReflTransGen (LeadsOn edges seen) s x) :
    x ∈ search edges seen stack := by
  fun_induction search edges seen stack generalizing s with
  | case1 => cases hs
  | case2 seen place stack hplace ih =>
    rcases List.mem_cons.mp hs with rfl | hs
    · exact absurd hplace hseen
    · exact ih hs hseen hpath
  | case3 seen place stack hplace _ _ ih =>
    rcases exists_way_on place hpath with rfl | ⟨t, ⟨rfl, hne⟩ | ht, hon⟩
    · exact List.mem_cons_self
    · have hstack := (List.mem_cons.mp hs).resolve_left hne
      exact List.mem_cons_of_mem _
        (ih (List.mem_append_right _ hstack) (by simp [hne, hseen]) hon)
    · exact List.mem_cons_of_mem _
        (ih (List.mem_append_left _ (mem_nextPlaces.mpr ht)) ht.2 hon)

/-- **The search visits exactly what can be reached** without coming to a place that has been seen
before. -/
theorem mem_search_iff {edges : List Edge} {seen stack : List String} {x : String} :
    x ∈ search edges seen stack ↔
      ∃ s ∈ stack, s ∉ seen ∧ ReflTransGen (LeadsOn edges seen) s x :=
  ⟨exists_of_mem_search, fun ⟨_, hs, hseen, hpath⟩ => mem_search_of_exists hs hseen hpath⟩

/-- If nothing has been seen, it is all that can be reached along the edges. -/
theorem mem_search_nil_iff {edges : List Edge} {stack : List String} {x : String} :
    x ∈ search edges [] stack ↔ ∃ s ∈ stack, ReflTransGen (Leads edges) s x := by
  simp [mem_search_iff, leadsOn_nil]

/-! ## Back edges -/

namespace Graph

variable {g : Graph}

/-- The edges that do not lead to a node. -/
def edgesBeside (g : Graph) (loop : String) : List Edge := g.edges.filter (·.target ≠ loop)

theorem leadsOn_loop (g : Graph) (loop : String) :
    LeadsOn g.edges [loop] = Leads (g.edgesBeside loop) := by
  funext a b
  refine propext ⟨?_, ?_⟩
  · rintro ⟨⟨e, he, rfl, rfl⟩, hne⟩
    exact ⟨e, List.mem_filter.mpr ⟨he, by simpa using hne⟩, rfl, rfl⟩
  · rintro ⟨e, he, rfl, rfl⟩
    obtain ⟨he, hne⟩ := List.mem_filter.mp he
    exact ⟨⟨e, he, rfl, rfl⟩, by simpa using hne⟩

theorem mem_loopBody_iff {loop id : String} :
    id ∈ g.loopBody loop ↔ ∃ e, g.edgeFor loop .body = some e ∧ e.target ≠ loop ∧
      ReflTransGen (Leads (g.edgesBeside loop)) e.target id := by
  unfold loopBody
  cases he : g.edgeFor loop .body with
  | none => simp
  | some e => simp [mem_search_iff, leadsOn_loop]

/-- A loop is not in its own body. -/
theorem not_mem_loopBody_self (g : Graph) (loop : String) : loop ∉ g.loopBody loop := by
  intro h
  obtain ⟨e, -, hne, hpath⟩ := mem_loopBody_iff.mp h
  rcases hpath.cases_tail with heq | ⟨c, -, f, hf, -, hft⟩
  · exact hne heq.symm
  · have := (List.mem_filter.mp hf).2
    simp [hft] at this

theorem mem_backEdges_iff {id : String} :
    id ∈ g.backEdges ↔ ∃ e ∈ g.edges, e.id = id ∧
      ∃ n ∈ g.nodes, isLoop n = true ∧ e.target = n.id ∧ e.source ∈ g.loopBody n.id := by
  unfold backEdges closingEdges
  constructor
  · intro h
    obtain ⟨n, hn, h⟩ := List.mem_flatMap.mp h
    obtain ⟨hn, hloop⟩ := List.mem_filter.mp hn
    obtain ⟨e, he, hid⟩ := List.mem_map.mp h
    obtain ⟨he, hcond⟩ := List.mem_filter.mp he
    simp only [Bool.and_eq_true, decide_eq_true_eq, List.contains_eq_mem] at hcond
    exact ⟨e, he, hid, n, hn, hloop, hcond.1, hcond.2⟩
  · rintro ⟨e, he, hid, n, hn, hloop, ht, hs⟩
    refine List.mem_flatMap.mpr ⟨n, List.mem_filter.mpr ⟨hn, hloop⟩, ?_⟩
    refine List.mem_map.mpr ⟨e, List.mem_filter.mpr ⟨he, ?_⟩, hid⟩
    simp [ht, hs]

end Graph

end Blockflow
