import Blockflow.Program.Basic

/-!
# Writing blocks

All languages write the statements of a block in the same order. A branch is the start of a chain: a
branch that is alone in the other part of it continues the chain. A switch is such a chain as well,
or it has a label for each of its cases. A `Writer` says what the parts of this look like in a
language: it puts together what was written of the blocks inside of a statement. What is written may
be lines of code or anything else that stands for them.
-/

namespace Blockflow

/-- What is tested in a part of a chain: a condition, or whether a subject has a value. -/
inductive Test where
  | holds (cond : String)
  | equals (subject value : String)

/-- How statements are written. The pieces of a block are given to what is written around it. -/
structure Writer (α : Type) where
  /-- a statement without blocks -/
  leaf : Statement → List α
  /-- the first part of a chain -/
  first : Test → List α → List α
  /-- a part that continues a chain -/
  next : Test → List α → List α
  /-- the part of a chain that is left when no test holds -/
  final : List α → List α
  /-- what ends a chain -/
  closing : List α
  /-- has a switch on a subject of this type, with these values, a label for each case? -/
  labels : ValueType → List String → Bool
  /-- a switch with labels -/
  labelled : (subject : String) → List α → List α
  /-- a case with its label; there is no value for the default -/
  label : Option String → List α → List α
  forLoop : (init cond step : String) → (declares emptyBody : Bool) → List α → List α
  whileLoop : (cond : String) → List α → List α

namespace Writer

variable {α : Type}

mutual

def statement (w : Writer α) : Statement → List α
  | .branch cond yes no _ =>
    w.first (.holds cond.shown) (w.block yes) ++ w.otherwise no ++ w.closing
  | .switch subject type cases default _ =>
    if w.labels type (cases.map Prod.fst) then
      w.labelled subject (w.labelledCases cases ++
        (if default.isEmpty then [] else w.label none (w.block default)))
    else
      match cases with
      | [] => w.block default
      | (value, body) :: rest =>
        w.first (.equals subject value) (w.block body) ++ w.chainCases subject rest ++
          (if default.isEmpty then [] else w.final (w.block default)) ++ w.closing
  | .forLoop init cond step declares body _ =>
    w.forLoop init cond.shown step.shown declares body.isEmpty (w.block body)
  | .whileLoop cond body _ => w.whileLoop cond.shown (w.block body)
  | s => w.leaf s

def block (w : Writer α) : List Statement → List α
  | [] => []
  | s :: rest => w.statement s ++ w.block rest

/-- What follows the first part of a branch. A branch that is alone there continues the chain. -/
def otherwise (w : Writer α) : List Statement → List α
  | [] => []
  | [.branch cond yes no _] => w.next (.holds cond.shown) (w.block yes) ++ w.otherwise no
  | s :: rest => w.final (w.statement s ++ w.block rest)

/-- The cases after the first one of a switch that is a chain. -/
def chainCases (w : Writer α) (subject : String) : List (String × List Statement) → List α
  | [] => []
  | (value, body) :: rest =>
    w.next (.equals subject value) (w.block body) ++ w.chainCases subject rest

/-- The cases of a switch with their labels. -/
def labelledCases (w : Writer α) : List (String × List Statement) → List α
  | [] => []
  | (value, body) :: rest => w.label (some value) (w.block body) ++ w.labelledCases rest

end

end Writer

end Blockflow
