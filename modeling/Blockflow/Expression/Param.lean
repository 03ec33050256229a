import Blockflow.Expression.Pieces

/-!
# Parameters of functions

A list such as `a, int b`: names with or without a declared type.
-/

namespace Blockflow

/-- A parameter of a function. -/
structure Param where
  name : String
  type : ValueType := .unknown
deriving DecidableEq, Repr

/-- What is wrong with a list of parameters. -/
inductive ParamError where
  | malformed (entry : String)
  | badName (name : String)
  | unknownType (name : String)
deriving DecidableEq, Repr

def ParamError.message : ParamError → String
  | .malformed entry => "malformed parameter '" ++ entry ++ "'"
  | .badName name => "invalid parameter name '" ++ name ++ "'"
  | .unknownType name => "unknown parameter type '" ++ name ++ "'"

namespace Param

/-- Check the name and then the type of a parameter. -/
def make (type? : Option (List Char)) (name : List Char) : Except ParamError Param :=
  if !Text.passesLine Text.isName name then .error (.badName (String.ofList name))
  else
    match type? with
    | none => .ok ⟨String.ofList name, .unknown⟩
    | some type =>
      match ValueType.ofDeclared? (String.ofList type) with
      | some t => .ok ⟨String.ofList name, t⟩
      | none => .error (.unknownType (String.ofList type))

/-- Read one parameter: a name, or a type and a name. -/
def parse (entry : List Char) : Except ParamError Param :=
  match Text.words entry with
  | [name] => make none name
  | [type, name] => make (some type) name
  | _ => .error (.malformed (String.ofList entry))

/-- Read a list of parameters; the first fault from the left is the error. -/
def parseList (s : String) : Except ParamError (List Param) :=
  (Expression.listItems s.toList).mapM parse

end Param

end Blockflow
