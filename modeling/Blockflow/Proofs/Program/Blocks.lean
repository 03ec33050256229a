import Blockflow.Proofs.Program.Heading

/-!
# Blocks inside of blocks

Statements contain blocks, and blocks consist of statements. An induction over blocks gets the fact
for all blocks inside of the first statement and for the rest (`Block.nested_induction`); a
statement on its own needs no induction then, but a distinction of its kinds.
-/

namespace Blockflow

/-- The blocks inside of a statement, in order. -/
def Statement.blocks : Statement → List Block
  | .branch _ yes no _ => [yes, no]
  | .switch _ _ cases default _ => cases.map Prod.snd ++ [default]
  | .forLoop _ _ _ _ body _ => [body]
  | .whileLoop _ body _ => [body]
  | _ => []

theorem Block.walkCases_eq_flatMap : ∀ (cases : List (String × Block)),
    Block.walkCases cases = (cases.map Prod.snd).flatMap Block.walk
  | [] => rfl
  | (_, block) :: rest => by
    rw [walkCases, walkCases_eq_flatMap rest]
    rfl

/-- A statement is walked through by starting with it and going on with its blocks. -/
theorem Statement.walk_eq (s : Statement) : s.walk = s :: s.blocks.flatMap Block.walk := by
  cases s with
  | branch cond yes no node => simp [walk, blocks]
  | switch subject type cases default node => simp [walk, blocks, Block.walkCases_eq_flatMap]
  | forLoop init cond step declares body node => simp [walk, blocks]
  | whileLoop cond body node => simp [walk, blocks]
  | _ => rfl

theorem Block.forall_walk_cons {P : Statement → Prop} {s : Statement} {rest : Block} :
    (∀ t ∈ Block.walk (s :: rest), P t) ↔
      P s ∧ (∀ b ∈ s.blocks, ∀ t ∈ Block.walk b, P t) ∧ ∀ t ∈ Block.walk rest, P t := by
  rw [Block.walk, s.walk_eq, List.cons_append, List.forall_mem_cons, List.forall_mem_append]
  simp only [List.mem_flatMap, forall_exists_index, and_imp]
  exact and_congr_right fun _ => and_congr_left fun _ =>
    ⟨fun h b hb t ht => h t b hb ht, fun h t b hb ht => h b hb t ht⟩

section

variable {motive : Block → Prop}

mutual

theorem Statement.forall_blocks (nil : motive [])
    (cons : ∀ (s : Statement) (rest : Block), (∀ b ∈ s.blocks, motive b) → motive rest →
      motive (s :: rest)) : ∀ (s : Statement), ∀ b ∈ s.blocks, motive b
  | .branch _ yes no _ => List.forall_mem_cons.mpr ⟨Block.nested_induction nil cons yes,
      List.forall_mem_singleton.mpr (Block.nested_induction nil cons no)⟩
  | .switch _ _ cases default _ => List.forall_mem_append.mpr ⟨Block.forall_cases nil cons cases,
      List.forall_mem_singleton.mpr (Block.nested_induction nil cons default)⟩
  | .forLoop _ _ _ _ body _ =>
    List.forall_mem_singleton.mpr (Block.nested_induction nil cons body)
  | .whileLoop _ body _ => List.forall_mem_singleton.mpr (Block.nested_induction nil cons body)
  | .declare _ | .assign _ _ _ | .array _ _ _ _ | .print _ _ | .call _ _ _ | .create _ _ _ _
  | .foreign _ => fun _ h => absurd h List.not_mem_nil

/-- Induction over blocks, where the blocks inside of a statement come before the statement. -/
@[elab_as_elim]
theorem Block.nested_induction (nil : motive [])
    (cons : ∀ (s : Statement) (rest : Block), (∀ b ∈ s.blocks, motive b) → motive rest →
      motive (s :: rest)) : ∀ (b : Block), motive b
  | [] => nil
  | s :: rest =>
    cons s rest (Statement.forall_blocks nil cons s) (Block.nested_induction nil cons rest)

theorem Block.forall_cases (nil : motive [])
    (cons : ∀ (s : Statement) (rest : Block), (∀ b ∈ s.blocks, motive b) → motive rest →
      motive (s :: rest)) :
    ∀ (cases : List (String × List Statement)), ∀ b ∈ cases.map Prod.snd, motive b
  | [] => fun _ h => absurd h List.not_mem_nil
  | (_, block) :: rest => List.forall_mem_cons.mpr
    ⟨Block.nested_induction nil cons block, Block.forall_cases nil cons rest⟩

end

end

/-- What is inside of a statement of a block is inside of the block. -/
theorem Block.walk_subset {b : Block} {s : Statement} (h : s ∈ Block.walk b) :
    ∀ c ∈ s.blocks, Block.walk c ⊆ Block.walk b := by
  induction b using Block.nested_induction with
  | nil => exact absurd h List.not_mem_nil
  | cons t rest hblocks hrest =>
    rw [Block.walk, t.walk_eq, List.cons_append] at h ⊢
    intro c hc u hu
    refine List.mem_cons_of_mem _ (List.mem_append.mpr ?_)
    rcases List.mem_cons.mp h with rfl | h
    · exact Or.inl (List.mem_flatMap.mpr ⟨c, hc, hu⟩)
    rcases List.mem_append.mp h with h | h
    · obtain ⟨b, hb, hs⟩ := List.mem_flatMap.mp h
      exact Or.inl (List.mem_flatMap.mpr ⟨b, hb, hblocks b hb hs c hc hu⟩)
    · exact Or.inr (hrest h c hc hu)

end Blockflow
