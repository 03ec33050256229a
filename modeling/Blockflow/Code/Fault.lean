import Blockflow.Code.Line
import Blockflow.Program.Basic

/-!
# What cannot be written

Writing a program fails at the first statement, in the order in which statements are written, that
has no text: a statement that is foreign to the language, an object in the place of an expression,
and in Python the header of a loop whose numbers cannot be read or written. A program without such a
fault has a text, which is put together without looking for faults again.
-/

namespace Blockflow

/-- The statements of a class in the order in which they are written: fields, then methods. -/
def ClassDef.written (c : ClassDef) : List Statement :=
  c.fields.map .declare ++ c.methods.flatMap fun f => Block.walk f.body

/-- The statements of a program in the order in which they are written. -/
def Program.written (p : Program) : List Statement :=
  p.classes.flatMap ClassDef.written ++ (p.functions.flatMap fun f => Block.walk f.body) ++
    Block.walk p.main

/-- An object in the place of an expression. -/
def FieldValue.fault? (value : FieldValue) : Option Failure :=
  match value.expression with
  | .ok _ => none
  | .error defect => some (.defect defect)

/-- What is wrong with the header of a loop that may count through a range. -/
def Expression.headerFault? (init : String) (cond step : FieldValue) : Option Failure :=
  let counter : Except Defect (Option Expression.Counter) := do
    (Expression.Counter.parse init (← cond.searched) (← step.searched)).mapError Defect.badNumeral
  match counter with
  | .ok _ => none
  | .error defect => some (.defect defect)

/-- What is wrong with the name of a variable that is given a value. Python tells variables from
fields by their names. -/
def Language.targetFault? (language : Language) (name : FieldValue) : Option Failure :=
  match language, name.key with
  | .python, .error defect => some (.defect defect)
  | _, _ => none

/-- What keeps a statement, apart from the ones inside of it, from being written. -/
def Statement.fault? (language : Language) : Statement → Option Failure
  | .declare d => d.value.fault?
  | .assign name value _ => language.targetFault? name <|> value.fault?
  | .print value _ => value.fault?
  | .branch cond _ _ _ => cond.fault?
  | .forLoop init cond step _ _ _ =>
    if language = .python then Expression.headerFault? init cond step
    else cond.fault? <|> step.fault?
  | .whileLoop cond _ _ => cond.fault?
  | .foreign construct => some (.compile (.unsupported language.name construct))
  | .array _ _ _ _ | .switch _ _ _ _ _ | .call _ _ _ | .create _ _ _ _ => none

/-- What keeps a program from being written. -/
def Program.fault? (p : Program) (language : Language) : Option Failure :=
  p.written.findSome? (Statement.fault? language)

end Blockflow
