import Blockflow.Code.Writer
import Blockflow.Proofs.Program.Blocks

/-!
# What writers have in common

A fact about what a writer makes of a block follows from facts about the parts of the writer,
without another induction over statements. Two writers are related (`Writer.Related`) if each part
of one is related to the same part of the other; then what they make of a block is related
(`Writer.Related.block`). A relation can say something of one writer only, and it can refer to the
statements of one line in what was written.

A writer that only collects pieces of the statements gives those of all statements of the block
(`Writer.mem_collect_iff`).
-/

namespace Blockflow

/-! ## Statements of one line -/

/-- Is the statement written as one line? -/
def Statement.isLeaf : Statement → Bool
  | .declare _ | .assign _ _ _ | .array _ _ _ _ | .print _ _ | .call _ _ _ | .create _ _ _ _ => true
  | _ => false

/-- The statements of one line in a statement, depth first. -/
def Statement.leaves (s : Statement) : List Statement := s.walk.filter isLeaf

/-- The statements of one line in a block, depth first. -/
def Block.leaves (b : Block) : List Statement := (Block.walk b).filter Statement.isLeaf

theorem Block.leaves_nil : Block.leaves [] = [] := rfl

theorem Block.leaves_cons (s : Statement) (rest : Block) :
    Block.leaves (s :: rest) = s.leaves ++ Block.leaves rest := by
  rw [leaves, Block.walk, List.filter_append]
  rfl

theorem Statement.leaves_of_isLeaf {s : Statement} (h : s.isLeaf = true) : s.leaves = [s] := by
  cases s <;> first | rfl | cases h

/-- The statements of one line in another statement are those of its blocks. -/
theorem Statement.leaves_of_blocks {s : Statement} (h : s.isLeaf = false) :
    s.leaves = s.blocks.flatMap Block.leaves := by
  rw [leaves, walk_eq, List.filter_cons_of_neg (by simp [h]), List.filter_flatMap]
  rfl

namespace Writer

variable {α β : Type}

/-! ## Chains -/

/-- The statement is written as a chain with this test in one of its parts. -/
inductive Chains (w : Writer α) : Statement → Test → Prop where
  | branch {cond : FieldValue} {yes no : Block} {node : String} :
      Chains w (.branch cond yes no node) (.holds cond.shown)
  | switch {subject value : String} {type : ValueType} {cases : List (String × Block)}
      {default : Block} {node : String} : w.labels type (cases.map Prod.fst) = false →
      value ∈ cases.map Prod.fst →
      Chains w (.switch subject type cases default node) (.equals subject value)

/-- In the other part of a branch, what is not a branch on its own is the last part of the chain. -/
theorem otherwise_of_not (w : Writer α) {s : Statement} {rest : Block}
    (h : ¬ ∃ cond yes no node, s :: rest = [.branch cond yes no node]) :
    w.otherwise (s :: rest) = w.final (w.block (s :: rest)) := by
  unfold otherwise
  split
  next heq => cases heq
  next cond yes no node heq => exact absurd ⟨cond, yes, no, node, heq⟩ h
  next heq =>
    cases heq
    rfl

section

variable {w : Writer α} {subject node : String} {type : ValueType} {default : Block}

/-- A switch is written with labels where the writer has labels for it. -/
theorem statement_labelled {cases : List (String × Block)}
    (h : w.labels type (cases.map Prod.fst) = true) :
    w.statement (.switch subject type cases default node) =
      w.labelled subject (w.labelledCases cases ++
        (if default.isEmpty then [] else w.label none (w.block default))) := by
  unfold statement
  rw [if_pos h]

theorem statement_noCases (h : w.labels type [] = false) :
    w.statement (.switch subject type [] default node) = w.block default := by
  unfold statement
  rw [List.map_nil, if_neg (by simp [h])]

/-- Where it has none, the switch is written as a chain that starts with the first case. -/
theorem statement_chain {value : String} {body : Block} {rest : List (String × Block)}
    (h : w.labels type (((value, body) :: rest).map Prod.fst) = false) :
    w.statement (.switch subject type ((value, body) :: rest) default node) =
      w.first (.equals subject value) (w.block body) ++ w.chainCases subject rest ++
        (if default.isEmpty then [] else w.final (w.block default)) ++ w.closing := by
  unfold statement
  rw [if_neg (by rw [h]; decide)]

end

/-! ## Related writers -/

/-- What one writer writes is related to what the other one writes, part by part. The relation may
depend on whether a chain is open before the pieces and after them, and on the statements of one
line that were written. -/
structure Related (w : Writer α) (w' : Writer β) (P : Statement → Prop)
    (R : Bool → Bool → List Statement → List α → List β → Prop) : Prop where
  nil : ∀ i, R i i [] [] []
  append : ∀ {i j k leaves leaves' as bs as' bs'}, R i j leaves as bs → R j k leaves' as' bs' →
    R i k (leaves ++ leaves') (as ++ as') (bs ++ bs')
  leaf : ∀ {s}, P s → s.blocks = [] → R false false s.leaves (w.leaf s) (w'.leaf s)
  first : ∀ {s test leaves as bs}, w.Chains s test → P s → R false false leaves as bs →
    R false true leaves (w.first test as) (w'.first test bs)
  next : ∀ {s test leaves as bs}, w.Chains s test → P s → R false false leaves as bs →
    R true true leaves (w.next test as) (w'.next test bs)
  final : ∀ {s test leaves as bs}, w.Chains s test → P s → R false false leaves as bs →
    R true true leaves (w.final as) (w'.final bs)
  closing : ∀ {s test}, w.Chains s test → P s → R true false [] w.closing w'.closing
  labels : w.labels = w'.labels
  labelled : ∀ {subject type cases default node leaves as bs},
    P (.switch subject type cases default node) → w.labels type (cases.map Prod.fst) = true →
    R false false leaves as bs →
    R false false leaves (w.labelled subject as) (w'.labelled subject bs)
  label : ∀ {subject type cases default node} {value? : Option String} {leaves as bs},
    P (.switch subject type cases default node) → w.labels type (cases.map Prod.fst) = true →
    (∀ value ∈ value?, value ∈ cases.map Prod.fst) → R false false leaves as bs →
    R false false leaves (w.label value? as) (w'.label value? bs)
  forLoop : ∀ {init cond step declares body node leaves as bs},
    P (.forLoop init cond step declares body node) → R false false leaves as bs →
    R false false leaves (w.forLoop init cond.shown step.shown declares body.isEmpty as)
      (w'.forLoop init cond.shown step.shown declares body.isEmpty bs)
  whileLoop : ∀ {cond body node leaves as bs}, P (.whileLoop cond body node) →
    R false false leaves as bs →
    R false false leaves (w.whileLoop cond.shown as) (w'.whileLoop cond.shown bs)

namespace Related

variable {w : Writer α} {w' : Writer β} {P : Statement → Prop}
  {R : Bool → Bool → List Statement → List α → List β → Prop}

/-- What is written of a block is related, on its own and in the other part of a branch. -/
def BlockRelated (w : Writer α) (w' : Writer β) (P : Statement → Prop)
    (R : Bool → Bool → List Statement → List α → List β → Prop) (b : Block) : Prop :=
  R false false b.leaves (w.block b) (w'.block b) ∧
    ∀ {s test}, w.Chains s test → P s → R true true b.leaves (w.otherwise b) (w'.otherwise b)

section

variable (hr : w.Related w' P R)
include hr

theorem chainCases {s : Statement} (hs : P s) {subject : String} :
    ∀ {cases : List (String × Block)},
      (∀ value ∈ cases.map Prod.fst, w.Chains s (.equals subject value)) →
      (∀ b ∈ cases.map Prod.snd, BlockRelated w w' P R b) →
        R true true ((cases.map Prod.snd).flatMap Block.leaves) (w.chainCases subject cases)
          (w'.chainCases subject cases)
  | [], _, _ => hr.nil true
  | (value, body) :: rest, hchains, hblocks => by
    obtain ⟨hvalue, hchains⟩ := List.forall_mem_cons.mp hchains
    obtain ⟨hbody, hblocks⟩ := List.forall_mem_cons.mp hblocks
    exact hr.append (hr.next hvalue hs hbody.1) (chainCases hs hchains hblocks)

theorem labelledCases {subject : String} {type : ValueType} {all : List (String × Block)}
    {default : Block} {node : String} (hs : P (.switch subject type all default node))
    (hlabels : w.labels type (all.map Prod.fst) = true) : ∀ {cases : List (String × Block)},
      cases.map Prod.fst ⊆ all.map Prod.fst →
      (∀ b ∈ cases.map Prod.snd, BlockRelated w w' P R b) →
        R false false ((cases.map Prod.snd).flatMap Block.leaves) (w.labelledCases cases)
          (w'.labelledCases cases)
  | [], _, _ => hr.nil false
  | (value, body) :: rest, hsub, hblocks => by
    obtain ⟨hvalue, hsub⟩ := List.cons_subset.mp hsub
    obtain ⟨hbody, hblocks⟩ := List.forall_mem_cons.mp hblocks
    have hlabel : ∀ v ∈ some value, v ∈ all.map Prod.fst := by
      rintro v ⟨⟩
      exact hvalue
    exact hr.append (hr.label hs hlabels hlabel hbody.1)
      (labelledCases hs hlabels hsub hblocks)

/-- The last part of a switch, which is left out if it is empty. -/
theorem default {i : Bool} {b : Block} {as : List α} {bs : List β} (h : R i i b.leaves as bs) :
    R i i b.leaves (if b.isEmpty then [] else as) (if b.isEmpty then [] else bs) := by
  cases b with
  | nil => exact hr.nil i
  | cons s rest => exact h

/-- A switch is related if its blocks are, in whichever form it is written. -/
theorem switch {subject : String} {type : ValueType} {cases : List (String × Block)}
    {default : Block} {node : String} (hs : P (.switch subject type cases default node))
    (hcases : ∀ b ∈ cases.map Prod.snd, BlockRelated w w' P R b)
    (hdefault : BlockRelated w w' P R default) :
    R false false ((cases.map Prod.snd).flatMap Block.leaves ++ default.leaves)
      (w.statement (.switch subject type cases default node))
      (w'.statement (.switch subject type cases default node)) := by
  have hsame := hr.labels
  cases hlabels : w.labels type (cases.map Prod.fst) with
  | true =>
    rw [statement_labelled hlabels, statement_labelled (hsame ▸ hlabels)]
    refine hr.labelled hs hlabels (hr.append ?_ (hr.default ?_))
    · exact hr.labelledCases hs hlabels (List.Subset.refl _) hcases
    · exact hr.label hs hlabels (by simp) hdefault.1
  | false =>
    cases cases with
    | nil =>
      rw [statement_noCases hlabels, statement_noCases (hsame ▸ hlabels)]
      exact hdefault.1
    | cons case rest =>
      obtain ⟨value, body⟩ := case
      obtain ⟨hbody, hrest⟩ := List.forall_mem_cons.mp hcases
      have hchains : ∀ v ∈ ((value, body) :: rest).map Prod.fst,
          w.Chains (.switch subject type ((value, body) :: rest) default node)
            (.equals subject v) :=
        fun v hv => .switch hlabels hv
      have hfirst := hchains value List.mem_cons_self
      have hparts := hr.append (hr.first hfirst hs hbody.1)
        (hr.chainCases hs (fun v hv => hchains v (List.mem_cons_of_mem _ hv)) hrest)
      have hchain := hr.append (hr.append hparts (hr.default (hr.final hfirst hs hdefault.1)))
        (hr.closing hfirst hs)
      rw [statement_chain hlabels, statement_chain (hsame ▸ hlabels)]
      rwa [List.append_nil] at hchain

/-- A statement is related if its blocks are. -/
theorem statement {s : Statement} (hs : P s) (h : ∀ b ∈ s.blocks, BlockRelated w w' P R b) :
    R false false s.leaves (w.statement s) (w'.statement s) := by
  cases s with
  | branch cond yes no node =>
    have hyes := h yes (by simp [Statement.blocks])
    have hno := h no (by simp [Statement.blocks])
    have hchain := hr.append (hr.append (hr.first .branch hs hyes.1) (hno.2 .branch hs))
      (hr.closing .branch hs)
    rw [Statement.leaves_of_blocks rfl]
    simpa [Statement.blocks, Writer.statement] using hchain
  | switch subject type cases default node =>
    obtain ⟨hcases, hdefault⟩ := List.forall_mem_append.mp h
    rw [Statement.leaves_of_blocks rfl, Statement.blocks, List.flatMap_append,
      List.flatMap_singleton]
    exact hr.switch hs hcases (hdefault default List.mem_cons_self)
  | forLoop init cond step declares body node =>
    have hbody := (h body (by simp [Statement.blocks])).1
    rw [Statement.leaves_of_blocks rfl, Statement.blocks, List.flatMap_singleton]
    exact hr.forLoop hs hbody
  | whileLoop cond body node =>
    have hbody := (h body (by simp [Statement.blocks])).1
    rw [Statement.leaves_of_blocks rfl, Statement.blocks, List.flatMap_singleton]
    exact hr.whileLoop hs hbody
  | _ => exact hr.leaf hs rfl

/-- In the other part of a branch, a branch on its own continues the chain. -/
theorem otherwise {s : Statement} {rest : Block} (hs : P s)
    (h : ∀ b ∈ s.blocks, BlockRelated w w' P R b)
    (hblock : R false false (Block.leaves (s :: rest)) (w.block (s :: rest)) (w'.block (s :: rest)))
    {outer : Statement} {test : Test} (hchains : w.Chains outer test) (houter : P outer) :
    R true true (Block.leaves (s :: rest)) (w.otherwise (s :: rest))
      (w'.otherwise (s :: rest)) := by
  by_cases halone : ∃ cond yes no node, s :: rest = [.branch cond yes no node]
  · obtain ⟨cond, yes, no, node, heq⟩ := halone
    cases heq
    have hyes := h yes (by simp [Statement.blocks])
    have hno := h no (by simp [Statement.blocks])
    have hchain := hr.append (hr.next .branch hs hyes.1) (hno.2 .branch hs)
    rw [Block.leaves_cons, Statement.leaves_of_blocks rfl]
    simpa [Statement.blocks, Block.leaves_nil, Writer.otherwise] using hchain
  · rw [otherwise_of_not w halone, otherwise_of_not w' halone]
    exact hr.final hchains houter hblock

/-- A block is related if its statements have the property that the parts ask for. -/
theorem blockRelated {b : Block} (h : ∀ s ∈ Block.walk b, P s) : BlockRelated w w' P R b := by
  induction b using Block.nested_induction with
  | nil => exact ⟨hr.nil false, fun _ _ => hr.nil true⟩
  | cons s rest hblocks hrest =>
    obtain ⟨hs, hinside, hafter⟩ := Block.forall_walk_cons.mp h
    have hblocks : ∀ b ∈ s.blocks, BlockRelated w w' P R b := fun b hb =>
      hblocks b hb (hinside b hb)
    have hblock : R false false (Block.leaves (s :: rest)) (w.block (s :: rest))
        (w'.block (s :: rest)) := by
      rw [Block.leaves_cons]
      exact hr.append (hr.statement hs hblocks) (hrest hafter).1
    exact ⟨hblock, fun hchains houter => hr.otherwise hs hblocks hblock hchains houter⟩

/-- **What related writers make of a block is related.** -/
theorem block {b : Block} (h : ∀ s ∈ Block.walk b, P s) :
    R false false b.leaves (w.block b) (w'.block b) :=
  (hr.blockRelated h).1

end

end Related

/-! ## Collecting -/

/-- What is collected of a statement, besides what is in its blocks. -/
structure Pieces (β : Type) where
  leaf : Statement → List β
  test : Test → List β
  forLoop : (init cond step : String) → (declares : Bool) → List β
  whileLoop : (cond : String) → List β

/-- The pieces of a statement itself. -/
def Pieces.ofStatement (pieces : Pieces β) : Statement → List β
  | .branch cond _ _ _ => pieces.test (.holds cond.shown)
  | .switch subject _ cases _ _ => cases.flatMap fun case => pieces.test (.equals subject case.1)
  | .forLoop init cond step declares _ _ => pieces.forLoop init cond.shown step.shown declares
  | .whileLoop cond _ _ => pieces.whileLoop cond.shown
  | s => pieces.leaf s

/-- The writer that collects pieces, and none of labels. -/
def collect (pieces : Pieces β) (labels : ValueType → List String → Bool) : Writer β where
  leaf := pieces.leaf
  first test inner := pieces.test test ++ inner
  next test inner := pieces.test test ++ inner
  final inner := inner
  closing := []
  labels := labels
  labelled _ inner := inner
  label _ inner := inner
  forLoop init cond step declares _ inner := pieces.forLoop init cond step declares ++ inner
  whileLoop cond inner := pieces.whileLoop cond ++ inner

section

variable {pieces : Pieces β} {labels : ValueType → List String → Bool} {x : β}

/-- What is collected in the other part of a branch is what is collected in the block. -/
theorem collect_otherwise (b : Block) :
    (collect pieces labels).otherwise b = (collect pieces labels).block b := by
  cases b with
  | nil => rfl
  | cons s rest =>
    by_cases halone : ∃ cond yes no node, s :: rest = [.branch cond yes no node]
    · obtain ⟨cond, yes, no, node, heq⟩ := halone
      cases heq
      simp [otherwise, block, statement, collect]
    · rw [otherwise_of_not _ halone]
      rfl

theorem mem_collect_default {b : Block} :
    x ∈ (if b.isEmpty then [] else (collect pieces labels).block b) ↔
      x ∈ (collect pieces labels).block b := by
  cases b <;> rfl

/-- From a chain of cases the tests and the blocks are collected. -/
theorem mem_collect_chainCases {subject : String} : ∀ {cases : List (String × Block)},
    x ∈ (collect pieces labels).chainCases subject cases ↔
      (∃ value ∈ cases.map Prod.fst, x ∈ pieces.test (.equals subject value)) ∨
        ∃ b ∈ cases.map Prod.snd, x ∈ (collect pieces labels).block b
  | [] => by simp [chainCases]
  | (value, body) :: rest => by
    rw [chainCases, List.mem_append, mem_collect_chainCases, List.map_cons, List.map_cons,
      List.exists_mem_cons_iff, List.exists_mem_cons_iff]
    show x ∈ pieces.test (.equals subject value) ++ (collect pieces labels).block body ∨ _ ↔ _
    rw [List.mem_append]
    exact or_or_or_comm

theorem mem_collect_labelledCases : ∀ {cases : List (String × Block)},
    x ∈ (collect pieces labels).labelledCases cases ↔
      ∃ b ∈ cases.map Prod.snd, x ∈ (collect pieces labels).block b
  | [] => by simp [labelledCases]
  | (value, body) :: rest => by
    rw [labelledCases, List.mem_append, mem_collect_labelledCases, List.map_cons,
      List.exists_mem_cons_iff]
    rfl

/-- What is collected of a statement is its own and that of its blocks. -/
theorem mem_collect_statement
    (hlabels : ∀ type values, labels type values = true → ∀ test, pieces.test test = [])
    (s : Statement) : x ∈ (collect pieces labels).statement s ↔
      x ∈ pieces.ofStatement s ∨ ∃ b ∈ s.blocks, x ∈ (collect pieces labels).block b := by
  cases s with
  | branch cond yes no node =>
    rw [statement, collect_otherwise]
    simp [collect, Pieces.ofStatement, Statement.blocks]
  | switch subject type cases default node =>
    have hown : x ∈ pieces.ofStatement (.switch subject type cases default node) ↔
        ∃ value ∈ cases.map Prod.fst, x ∈ pieces.test (.equals subject value) := by
      simp [Pieces.ofStatement]
    have hblocks : (∃ b ∈ (cases.map Prod.snd ++ [default]), x ∈ (collect pieces labels).block b) ↔
        (∃ b ∈ cases.map Prod.snd, x ∈ (collect pieces labels).block b) ∨
          x ∈ (collect pieces labels).block default := by
      simp only [List.mem_append, List.mem_singleton, or_and_right, exists_or, exists_eq_left]
    rw [hown, Statement.blocks, hblocks]
    cases hcase : labels type (cases.map Prod.fst) with
    | true =>
      have hnone : ¬ ∃ value ∈ cases.map Prod.fst, x ∈ pieces.test (.equals subject value) := by
        simp [hlabels _ _ hcase]
      rw [statement_labelled hcase]
      show x ∈ (collect pieces labels).labelledCases cases ++
        (if default.isEmpty then [] else (collect pieces labels).block default) ↔ _
      rw [List.mem_append, mem_collect_labelledCases, mem_collect_default, or_iff_right hnone]
    | false =>
      cases cases with
      | nil =>
        rw [statement_noCases hcase]
        simp
      | cons case rest =>
        obtain ⟨value, body⟩ := case
        have hchain : x ∈ (collect pieces labels).chainCases subject ((value, body) :: rest) ↔ _ :=
          mem_collect_chainCases
        rw [statement_chain hcase, ← or_assoc, ← hchain]
        show x ∈ (collect pieces labels).chainCases subject ((value, body) :: rest) ++
          (if default.isEmpty then [] else (collect pieces labels).block default) ++ [] ↔ _
        rw [List.append_nil, List.mem_append, mem_collect_default]
  | forLoop init cond step declares body node =>
    rw [statement]
    simp [collect, Pieces.ofStatement, Statement.blocks]
  | whileLoop cond body node =>
    rw [statement]
    simp [collect, Pieces.ofStatement, Statement.blocks]
  | _ => simp [statement, collect, Pieces.ofStatement, Statement.blocks]

/-- **What is collected of a block is what all of its statements have.** -/
theorem mem_collect_iff
    (hlabels : ∀ type values, labels type values = true → ∀ test, pieces.test test = [])
    (b : Block) : x ∈ (collect pieces labels).block b ↔
      ∃ s ∈ Block.walk b, x ∈ pieces.ofStatement s := by
  induction b using Block.nested_induction with
  | nil => simp [block, Block.walk]
  | cons s rest hblocks hrest =>
    have hinside : (∃ b ∈ s.blocks, x ∈ (collect pieces labels).block b) ↔
        ∃ t ∈ s.blocks.flatMap Block.walk, x ∈ pieces.ofStatement t := by
      rw [exists_congr fun b => and_congr_right fun hb => hblocks b hb]
      simp only [List.mem_flatMap]
      constructor
      · rintro ⟨b, hb, t, ht, hx⟩
        exact ⟨t, ⟨b, hb, ht⟩, hx⟩
      · rintro ⟨t, ⟨b, hb, ht⟩, hx⟩
        exact ⟨b, hb, t, ht, hx⟩
    rw [block, List.mem_append, mem_collect_statement hlabels, hrest, hinside, Block.walk,
      s.walk_eq]
    simp only [List.mem_append, List.mem_cons, or_and_right, exists_or, exists_eq_left]

/-- What is collected of a block has a property if it holds of what its statements have. -/
theorem forall_collect_iff
    (hlabels : ∀ type values, labels type values = true → ∀ test, pieces.test test = [])
    (b : Block) {P : β → Prop} : (∀ x ∈ (collect pieces labels).block b, P x) ↔
      ∀ s ∈ Block.walk b, ∀ x ∈ pieces.ofStatement s, P x := by
  simp only [mem_collect_iff hlabels, forall_exists_index, and_imp]
  exact ⟨fun h s hs x hx => h x s hs hx, fun h x s hs hx => h s hs x hx⟩

end

end Writer

end Blockflow
