import Blockflow.Numeral
import Blockflow.Text.Blank

/-!
# Roles of edges

The role of an edge says through which exit it leaves its block. Roles are written as handles, with
several spellings for most of them; `Role.label` is the spelling that is shown. A case whose index
has too many digits to be written cannot be shown (`Role.writeLabel`), but no handle stands for it
either.
-/

namespace Blockflow

inductive Role where
  | next
  | whenTrue
  | whenFalse
  | body
  | case (index : Nat)
  | default
deriving DecidableEq, Repr

/-- Why a handle stands for no role. -/
inductive RoleError where
  | unknown (handle : String)
  | badIndex (error : NumeralError)
deriving DecidableEq, Repr

def RoleError.message : RoleError → String
  | .unknown handle => "Unknown edge role '" ++ handle ++ "'"
  | .badIndex error => error.message

namespace Role

/-- The kind of a role, without the index of a case. -/
def kind : Role → String
  | .next => "next"
  | .whenTrue => "true"
  | .whenFalse => "false"
  | .body => "body"
  | .case _ => "case"
  | .default => "default"

def index? : Role → Option Nat
  | .case index => some index
  | _ => none

/-- The label of a role as a text. -/
def label : Role → String
  | .case index => "case-" ++ Json.intString index
  | role => role.kind

/-- Write the label of a role. An index of more digits than are written has none. -/
def writeLabel : Role → Except NumeralError String
  | .case index => (Numeral.write index).map ("case-" ++ ·)
  | role => .ok role.kind

/-- The spellings of the roles other than cases. -/
def spellings : Dict Role :=
  [("", .next), ("next", .next), ("out", .next), ("exit", .next), ("after", .next),
   ("true", .whenTrue), ("true-branch", .whenTrue), ("then", .whenTrue),
   ("false", .whenFalse), ("false-branch", .whenFalse), ("else", .whenFalse),
   ("body", .body), ("loop-body", .body), ("default", .default)]

/-- The digits of the index of a case: `case`, a hyphen that may be left out, and digits. -/
def caseDigits? (key : List Char) : Option (List Char) :=
  match key with
  | 'c' :: 'a' :: 's' :: 'e' :: rest =>
    let digits := match rest with
      | '-' :: more => more
      | more => more
    if !digits.isEmpty && digits.all Text.isDigit then some digits else none
  | _ => none

/-- A handle as it is compared: stripped and in small letters. Only ASCII capitals are folded,
because no letter of a handle is the small form of any other character. -/
def normalize (handle : String) : List Char := (Text.strip handle.toList).map Char.toLower

/-- The role that a handle stands for; no handle at all stands for `next`. -/
def parse (handle : Option String) : Except RoleError Role :=
  let key := normalize (handle.getD "")
  match spellings.get? (String.ofList key) with
  | some role => .ok role
  | none =>
    match caseDigits? key with
    | some digits => ((Numeral.read digits).map .case).mapError .badIndex
    | none => .error (.unknown (handle.getD ""))

end Role

end Blockflow
