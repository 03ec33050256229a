import Blockflow.Code.Line

/-!
# Writing lines stroke by stroke

Code can be written from top to bottom by a writer that keeps a level: each line is written at the
level that is reached, and between lines the level is raised and lowered. Such a writer does not
know the lines of a block before it writes the header, and nothing but its own care brings it back
to the level that it came from. Strokes write some lines (`Stroke.Writes`) if they come back to the
level that they started at, and leave the lines at the levels that the lines have.
-/

namespace Blockflow

/-- What a writer does. A header is a line with a suite below it. -/
inductive Stroke where
  | line (text : String)
  | header (text : String)
  | indent
  | dedent

/-- A line that was written, its level, and whether it is a header. -/
structure Mark where
  isHeader : Bool
  level : Int
  text : String

namespace Stroke

/-- The level after a stroke. -/
def next (level : Int) : Stroke → Int
  | .indent => level + 1
  | .dedent => level - 1
  | .line _ | .header _ => level

/-- The line that a stroke writes. -/
def mark? (level : Int) : Stroke → Option Mark
  | .line text => some ⟨false, level, text⟩
  | .header text => some ⟨true, level, text⟩
  | .indent | .dedent => none

/-- The level after some strokes. -/
def levelAfter (level : Int) : List Stroke → Int
  | [] => level
  | s :: rest => levelAfter (s.next level) rest

/-- The lines that some strokes write. -/
def marks (level : Int) : List Stroke → List Mark
  | [] => []
  | s :: rest => (s.mark? level).toList ++ marks (s.next level) rest

/-- Strokes one level deeper. -/
def nested (strokes : List Stroke) : List Stroke := .indent :: strokes ++ [.dedent]

/-- Groups of strokes with a blank line between two groups. -/
def spaced : List (List Stroke) → List Stroke
  | [] => []
  | [group] => group
  | group :: rest => group ++ .line "" :: spaced rest

variable {strokes strokes' : List Stroke} {lines lines' : List Line} {level : Int}

theorem levelAfter_append :
    levelAfter level (strokes ++ strokes') = levelAfter (levelAfter level strokes) strokes' := by
  induction strokes generalizing level with
  | nil => rfl
  | cons s rest ih => exact ih

/-- Marks are made one after the other, from the level that was reached. -/
theorem marks_append :
    marks level (strokes ++ strokes') =
      marks level strokes ++ marks (levelAfter level strokes) strokes' := by
  induction strokes generalizing level with
  | nil => rfl
  | cons s rest ih => rw [List.cons_append, marks, ih, marks, List.append_assoc, levelAfter]

/-- Nested strokes are marked one level deeper if they come back to it. -/
theorem marks_nested (h : levelAfter (level + 1) strokes = level + 1) :
    marks level (nested strokes) = marks (level + 1) strokes := by
  rw [nested, List.cons_append, marks, marks_append]
  show [] ++ (marks (level + 1) strokes ++ marks (levelAfter (level + 1) strokes) [.dedent]) = _
  rw [h]
  exact List.append_nil _

theorem levelAfter_nested (h : levelAfter (level + 1) strokes = level + 1) :
    levelAfter level (nested strokes) = level := by
  rw [nested, List.cons_append, levelAfter, levelAfter_append]
  show levelAfter (levelAfter (level + 1) strokes) [.dedent] = level
  rw [h]
  show level + 1 - 1 = level
  omega

/-- Whether anything is written does not depend on the level. -/
theorem isEmpty_marks_eq (strokes : List Stroke) (n m : Int) :
    (marks n strokes).isEmpty = (marks m strokes).isEmpty := by
  induction strokes generalizing n m with
  | nil => rfl
  | cons s rest ih =>
    rw [marks, marks]
    cases s with
    | line text => rfl
    | header text => rfl
    | indent => exact ih _ _
    | dedent => exact ih _ _

/-- Two groups of strokes write nothing if neither does. -/
theorem isEmpty_marks_append : (marks 0 (strokes ++ strokes')).isEmpty =
    ((marks 0 strokes).isEmpty && (marks 0 strokes').isEmpty) := by
  rw [marks_append, isEmpty_marks_eq strokes' 0 (levelAfter 0 strokes)]
  cases marks 0 strokes with
  | nil => rfl
  | cons m rest => rfl

/-- The strokes come back to the level that they started at and write these lines there. -/
structure Writes (strokes : List Stroke) (lines : List Line) : Prop where
  level : ∀ n, levelAfter n strokes = n
  marks : ∀ n, (marks n strokes).map (fun m => (m.level, m.text)) =
    lines.map fun l => (n + l.level, l.text)

namespace Writes

theorem nil : Writes [] [] := ⟨fun _ => rfl, fun _ => rfl⟩

theorem append (h : Writes strokes lines) (h' : Writes strokes' lines') :
    Writes (strokes ++ strokes') (lines ++ lines') where
  level n := by rw [levelAfter_append, h.level, h'.level]
  marks n := by rw [marks_append, h.level, List.map_append, h.marks, h'.marks, List.map_append]

theorem line (text : String) : Writes [.line text] [Line.flush text] where
  level _ := rfl
  marks n := by simp [Stroke.marks, mark?, Line.flush]

theorem header (text : String) : Writes [.header text] [Line.flush text] where
  level _ := rfl
  marks n := by simp [Stroke.marks, mark?, Line.flush]

/-- Nested strokes write the lines one level deeper. -/
theorem nested (h : Writes strokes lines) : Writes (nested strokes) (deepen lines) where
  level n := levelAfter_nested (h.level _)
  marks n := by
    rw [marks_nested (h.level _), h.marks, deepen, List.map_map]
    refine List.map_congr_left fun l _ => ?_
    simp only [Function.comp_apply, Line.deeper, Prod.mk.injEq, and_true]
    omega

theorem ofLines (lines : List Line) (h : ∀ l ∈ lines, l.level = 0) :
    Writes (lines.map fun l => .line l.text) lines := by
  induction lines with
  | nil => exact nil
  | cons l rest ih =>
    obtain ⟨hl, hrest⟩ := List.forall_mem_cons.mp h
    have hline : l = Line.flush l.text := by cases l; cases hl; rfl
    have := (line l.text).append (ih hrest)
    rwa [← hline] at this

theorem flatMap {α : Type} {xs : List α} {f : α → List Stroke} {g : α → List Line}
    (h : ∀ x ∈ xs, Writes (f x) (g x)) : Writes (xs.flatMap f) (xs.flatMap g) := by
  induction xs with
  | nil => exact nil
  | cons x rest ih =>
    obtain ⟨hx, hrest⟩ := List.forall_mem_cons.mp h
    exact hx.append (ih hrest)

/-- Strokes with empty lines between them write the spaced lines. -/
theorem spaced {α : Type} {f : α → List Stroke} {g : α → List Line} : ∀ {xs : List α},
    (∀ x ∈ xs, Writes (f x) (g x)) → Writes (spaced (xs.map f)) (Blockflow.spaced (xs.map g))
  | [], _ => nil
  | [x], h => h x List.mem_cons_self
  | x :: y :: rest, h => by
    obtain ⟨hx, hrest⟩ := List.forall_mem_cons.mp h
    exact hx.append ((line "").append (spaced hrest))

/-- Strokes that write no lines leave no marks. -/
theorem isEmpty_marks (h : Writes strokes lines) :
    (Stroke.marks 0 strokes).isEmpty = lines.isEmpty := by
  have := congrArg List.isEmpty (h.marks 0)
  rwa [List.isEmpty_map, List.isEmpty_map] at this

end Writes

end Stroke

end Blockflow
